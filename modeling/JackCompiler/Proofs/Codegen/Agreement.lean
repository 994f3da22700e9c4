import JackCompiler.Proofs.Codegen.ClassLockstep
import JackCompiler.Proofs.Codegen.Watch

/-!
# Passes that count agree with the code generator

A pass that counts is in step with the code generator: where as many levels are open as the code
generator has used up of its levels, both come to the same, and a step that answers has closed every
level that it has opened. The pass never leaves its range and is never cut off. It fails with a
level too many if and only if the nesting is too deep.

## Main definitions

* `Watch.Same` — the outcomes of two steps
* `Watch.Mirrors` — a step of a pass that counts comes to the same as one of the code generator

## Main results

* `Watch.Mirrors.bind`, `Watch.Mirrors.iterate` — composed and repeated steps
* `Watch.Mirrors.nested`, `Watch.Mirrors.tooDeep` — one level that is opened, or cannot be
-/

namespace JackCompiler

/-! ### Runs of passes that count -/

namespace Counted

variable {limits : Limits} {α β : Type}

theorem run_bind (step : Counted limits α) (next : α → Counted limits β) (tally : Tally) :
    (step >>= next).run tally = match step.run tally with
      | (.ok a, middle) => (next a).run middle
      | (.error reason, middle) => (.error reason, middle) := by
  change (ExceptT.bindCont next (step tally).1 : StateM Tally _) (step tally).2 = _
  unfold run
  rcases step tally with ⟨_ | _, _⟩ <;> rfl

end Counted

namespace Watch

open Codegen (Advances TakesIf Lockstep)

variable {limits : Limits} {W : Watch limits} {α β γ : Type} {d n k m : Nat} {s : Session}
  {shows : TokenStream → Prop} {x : Codegen α} {x' : Counted limits α} {f : α → Codegen β}
  {f' : α → Counted limits β}

/-- The outcomes of a step of a pass that counts and of one of the code generator. If both answer,
then as many levels are open as given. Where one level too many is opened, both stand still. -/
inductive Same (W : Watch limits) (d n : Nat) :
    Except Halt α × Tally → Except Fault α × Session → Prop where
  | answer {a : α} {s : Session} (holds : W.holds n s) :
    Same W d n (.ok a, { session := s, depth := d }) (.ok a, s)
  | failure {fault : Fault} {s : Session} {depth : Nat} (possible : W.faults fault)
    (other : ¬ fault.IsNesting) (within : depth ≤ maxNesting) :
    Same W d n (.error (.fault fault), { session := s, depth }) (.error fault, s)
  | nesting {fault : Fault} {s : Session} (isNesting : fault.IsNesting) :
    Same W d n (.error (.fault fault), { session := s, depth := maxNesting + 1 }) (.error fault, s)

/-- Where the given number of levels is open, a step of a pass that counts comes to the same as one
of the code generator, with the given reserves in front of it and behind it. -/
def Mirrors (W : Watch limits) (d : Nat) (shows : TokenStream → Prop) (n m : Nat)
    (x' : Counted limits α) (x : Codegen α) : Prop :=
  d ≤ maxNesting → ∀ s, W.holds n s → shows s.tokens →
    W.Same d m (x'.run { session := s, depth := d }) (x.run.run s)

namespace Mirrors

/-! ### Composed steps -/

theorem bind (first : W.Mirrors d shows n k x' x)
    (rest : ∀ a, W.Mirrors d anything k m (f' a) (f a)) :
    W.Mirrors d shows n m (x' >>= f') (x >>= f) := by
  intro shallow s holds shown
  have outcome := first shallow s holds shown
  rw [Counted.run_bind, Codegen.run_bind]
  generalize x'.run { session := s, depth := d } = run' at outcome
  generalize x.run.run s = run at outcome
  cases outcome with
  | answer holds => exact rest _ shallow _ holds trivial
  | failure possible other within => exact .failure possible other within
  | nesting isNesting => exact .nesting isNesting

theorem pure (a : α) : W.Mirrors d shows n n (Pure.pure a) (Pure.pure a) :=
  fun _ _ holds _ => .answer holds

/-- A step that both passes have in common. -/
theorem lift (kept : W.Keeps shows n m x) : W.Mirrors d shows n m (Counted.lift x) x := by
  intro shallow s holds shown
  have outcome := kept s holds shown
  unfold Counted.run Counted.lift
  generalize x.run.run s = run at outcome
  cases outcome with
  | answer holds =>
    -- What is watched keeps the pass in its range.
    dsimp only
    rw [if_pos (W.inRange holds shallow)]
    exact .answer holds
  | failure possible other inRange =>
    dsimp only
    rw [if_pos (inRange d shallow)]
    exact .failure possible other shallow

/-- Behind a look it is known what the tokens show. -/
theorem look {view : TokenStream → γ} {f : γ → Codegen β} {f' : γ → Counted limits β}
    (rest : ∀ c, W.Mirrors d (fun stream => view stream = c) n m (f' c) (f c)) :
    W.Mirrors d shows n m (Counted.lift (Codegen.look view) >>= f')
      (Codegen.look view >>= f) := by
  intro shallow s holds _
  have looked : (Counted.lift (Codegen.look view) : Counted limits γ).run
      { session := s, depth := d } = (.ok (view s.tokens), { session := s, depth := d }) := by
    have run : (Codegen.look view).run.run s = (.ok (view s.tokens), s) := rfl
    unfold Counted.run Counted.lift
    rw [run]
    dsimp only
    rw [if_pos (W.inRange holds shallow)]
    rfl
  rw [Counted.run_bind, looked, Codegen.run_bind]
  exact rest (view s.tokens) shallow s holds rfl

/-- A length that fits into sixteen bits changes nothing. -/
theorem narrow {length : Nat} {next : Unit → Counted limits α} (fits : length < 2 ^ 16)
    (rest : W.Mirrors d shows n m (next ()) x) :
    W.Mirrors d shows n m (Counted.narrow length >>= next) x := by
  intro shallow s holds shown
  have passed : (Counted.narrow length : Counted limits Unit).run { session := s, depth := d } =
      (.ok (), { session := s, depth := d }) := by
    rw [Counted.narrow, if_pos fits]
    rfl
  rw [Counted.run_bind, passed]
  exact rest shallow s holds shown

/-! ### One level of nesting -/

/-- A level that is opened in front of a step and closed behind it. -/
theorem nested {next : Counted limits Unit} {inner : Codegen Unit} (room : d < maxNesting)
    (inside : W.Mirrors (d + 1) anything n n next inner) :
    W.Mirrors d shows n n (do Counted.enter; next; Counted.leave) inner := by
  intro _ s holds _
  have entered : (Counted.enter : Counted limits Unit).run { session := s, depth := d } =
      (.ok (), { session := s, depth := d + 1 }) := by
    unfold Counted.run Counted.enter
    dsimp only
    rw [if_pos (Nat.succ_le_of_lt room)]
  have outcome := inside room s holds trivial
  rw [Counted.run_bind, entered]
  dsimp only
  rw [Counted.run_bind]
  generalize next.run { session := s, depth := d + 1 } = run' at outcome
  generalize inner.run.run s = run at outcome
  cases outcome with
  | answer holds => exact .answer holds
  | failure possible other within => exact .failure possible other within
  | nesting isNesting => exact .nesting isNesting

/-- No level can be opened if as many are open as may be. -/
theorem tooDeep {next : Unit → Counted limits α} :
    W.Mirrors maxNesting shows n m (Counted.enter >>= next)
      (do Codegen.failAt (← Codegen.location) .nestingTooDeep) :=
  fun _ _ _ _ => .nesting ⟨_, rfl⟩

/-! ### Repeated steps -/

/-- Rounds end on both sides, because each of them but the last takes a token. -/
theorem iterate {step : α → Codegen (Option α)} {step' : α → Counted limits (Option α)}
    (round : ∀ a, W.Mirrors d anything n n (step' a) (step a))
    (takes : ∀ a, TakesIf (·.isSome) (step a)) (a : α) :
    W.Mirrors d shows n n (Counted.iterate step' a) (Codegen.iterate step a) := by
  intro shallow s holds _
  -- The rounds that are left exceed the tokens that are left, on both sides.
  have rounds (bound : Nat) : ∀ (bound' : Nat) (a : α) (s : Session), W.holds n s →
      s.tokens.tokensLeft < bound → s.tokens.tokensLeft < bound' →
      W.Same d n ((Counted.iterateBelow step' bound' a).run { session := s, depth := d })
        ((Codegen.iterateAtMost step bound a).run.run s) := by
    induction bound with
    | zero =>
      intro _ _ _ _ none
      exact absurd none (Nat.not_lt_zero _)
    | succ bound ih =>
      intro bound' a s holds few few'
      obtain ⟨bound', rfl⟩ : ∃ b, bound' = b + 1 := ⟨bound' - 1, by omega⟩
      have outcome := round a shallow s holds trivial
      have takes := takes a s
      rw [Codegen.iterateAtMost, Counted.iterateBelow, Codegen.run_bind, Counted.run_bind]
      generalize (step' a).run { session := s, depth := d } = run' at outcome
      generalize first : (step a).run.run s = run at outcome
      cases outcome with
      | @answer next s₁ holds₁ =>
        cases next with
        | none => exact .answer holds₁
        | some b =>
          -- The round has taken a token, so that the rounds that are left suffice for the others.
          obtain ⟨terminal, terminals, reads⟩ := takes (some b) s₁ first rfl
          have fewer := reads.tokensLeft_le (W.consistent holds)
          rw [List.length_cons] at fewer
          exact ih bound' b s₁ holds₁ (by omega) (by omega)
      | failure possible other within => exact .failure possible other within
      | nesting isNesting => exact .nesting isNesting
  exact rounds (s.tokens.tokensLeft + 1) limits.rounds a s holds (Nat.lt_succ_self _)
    (W.rounds holds)

theorem repeatWhile {step : Codegen Bool} {step' : Counted limits Bool}
    (round : W.Mirrors d anything n n step' step) (moves : Advances step)
    (takes : TakesIf (· = true) step) :
    W.Mirrors d shows n n (Counted.repeatWhile step') (Codegen.repeatWhile step) := by
  refine iterate (fun _ => .bind round fun going => ?_) (fun _ => ?_) ()
  · cases going with
    | true => exact .pure _
    | false => exact .pure _
  · refine takes.bind moves (fun going => ?_) fun going idle => ?_
    · split <;> exact .pure _
    · rw [if_neg idle]
      exact .pure (by simp)

end Mirrors

end Watch

end JackCompiler
