import JackCompiler.Proofs.Codegen.Advance

/-!
# Steps that follow the grammar

Wherever a step stops, it has not left the grammar. If it answers, then it has taken a phrase. If it
finds fault with the class, then it has taken the beginning of a phrase, and a token that it did not
want is the look-ahead that it has left.

The phrases of a composed step are known before its parts are. Behind what the first part may take,
the second part follows what is left of them.

## Main definitions

* `Codegen.Phrases` — what a step may take, by its answer
* `Codegen.Follows` — a step takes one of some phrases, or the beginning of one
* `Codegen.Idle` — a step leaves the tokens alone

## Main results

* `Codegen.Follows.bind` — steps one after the other
* `Codegen.Follows.iterate`, `Codegen.Follows.repeatWhile` — repeated steps
-/

namespace JackCompiler

open Grammar (Terminal)

/-- If a fault is about a token that was not expected, then this is the look-ahead. -/
def TokenStream.Shows (stream : TokenStream) (fault : Located SyntacticFault) : Prop :=
  ∀ expected encountered, fault.cause = .mismatch expected encountered →
    .syntactic fault = stream.mismatch expected

/-- Taking the look-ahead fails because of the tokens only if there is none. -/
theorem TokenReader.next_of_syntactic {stream behind : TokenStream} {fault : Located SyntacticFault}
    (run : next.run.run stream = (.error (.syntactic fault), behind)) :
    stream.lookahead = none := by
  rw [run_next_eq] at run
  split at run
  · rename_i none
    exact none
  · split at run <;> cases run

namespace Codegen

variable {α β τ : Type}

/-- What a step may take, by its answer. -/
abbrev Phrases (α : Type) := α → List Terminal → Prop

/-- A single phrase for each answer. -/
@[reducible] def only (phrase : α → List Terminal) : Phrases α :=
  fun a taken => taken = phrase a

/-- Phrases of some kind, whatever the answer is. -/
@[reducible] def anyOf (phrase : τ → List Terminal) : Phrases α :=
  fun _ taken => ∃ p, phrase p = taken

/-- Phrases of some kind as long as rounds go on, and nothing in the end. -/
@[reducible] def rounds (phrase : τ → List Terminal) : Phrases (Option α) :=
  fun next taken => if next.isSome then ∃ p, phrase p = taken else taken = []

/-- Phrases of some kind if a step tells that there is one, and nothing otherwise. -/
@[reducible] def ifAny (phrase : τ → List Terminal) : Phrases Bool :=
  fun found taken => if found then ∃ p, phrase p = taken else taken = []

/-- What is left of phrases behind some terminals. -/
@[reducible] def Phrases.behind (phrases : Phrases α) (taken : List Terminal) : Phrases α :=
  fun a rest => phrases a (taken ++ rest)

/-- From a session on, a step takes one of some phrases if it answers. If it finds fault with the
class, then it has taken the beginning of one. -/
structure Follows (s : Session) (x : Codegen α) (phrases : Phrases α) : Prop where
  nonempty : ∃ a phrase, phrases a phrase
  whole : ∀ {a s'}, Runs x s a s' → ∃ phrase, phrases a phrase ∧ s.tokens.Reads phrase s'.tokens
  begun : ∀ {fault s'}, x.run.run s = (.error (.syntactic fault), s') →
    (∃ a taken more, phrases a (taken ++ more) ∧ s.tokens.Reads taken s'.tokens) ∧
      s'.tokens.Shows fault

variable {s : Session} {x y : Codegen α} {f : α → Codegen β} {a : α} {phrases : Phrases α}
  {target : Phrases β} {phrase : τ → List Terminal}

namespace Follows

/-! ### Composed steps -/

theorem mono (h : Follows s x phrases) {phrases' : Phrases α}
    (le : ∀ a taken, phrases a taken → phrases' a taken) : Follows s x phrases' where
  nonempty := by
    obtain ⟨a, phrase, known⟩ := h.nonempty
    exact ⟨a, phrase, le a phrase known⟩
  whole run := by
    obtain ⟨phrase, known, reads⟩ := h.whole run
    exact ⟨phrase, le _ _ known, reads⟩
  begun run := by
    obtain ⟨⟨a, taken, more, known, reads⟩, shows⟩ := h.begun run
    exact ⟨⟨a, taken, more, le _ _ known, reads⟩, shows⟩

/-- A phrase that has been begun can be completed by the first step, and then by the second. -/
theorem bind (first : Follows s x phrases)
    (rest : ∀ a taken, phrases a taken → ∀ {s'}, Follows s' (f a) (target.behind taken)) :
    Follows s (x >>= f) target where
  nonempty := by
    obtain ⟨a, taken, known⟩ := first.nonempty
    have follows : Follows s (f a) (target.behind taken) := rest a taken known
    obtain ⟨b, more, known'⟩ := follows.nonempty
    exact ⟨b, taken ++ more, known'⟩
  whole run := by
    obtain ⟨a, middle, run, run'⟩ := runs_bind.mp run
    obtain ⟨taken, known, reads⟩ := first.whole run
    obtain ⟨more, known', reads'⟩ := (rest a taken known).whole run'
    exact ⟨taken ++ more, known', reads.append reads'⟩
  begun {fault s'} run := by
    rw [run_bind] at run
    split at run
    · rename_i a middle answered
      obtain ⟨taken, known, reads⟩ := first.whole answered
      obtain ⟨⟨b, more, last, known', reads'⟩, shows⟩ := (rest a taken known).begun run
      refine ⟨⟨b, taken ++ more, last, ?_, reads.append reads'⟩, shows⟩
      rwa [List.append_assoc]
    · rename_i fault' middle failed
      cases run
      obtain ⟨⟨a, taken, more, known, reads⟩, shows⟩ := first.begun failed
      have follows : Follows s (f a) (target.behind (taken ++ more)) := rest a _ known
      obtain ⟨b, last, known'⟩ := follows.nonempty
      refine ⟨⟨b, taken, more ++ last, ?_, reads⟩, shows⟩
      rwa [← List.append_assoc]

/-- A step that takes what its answer says. -/
theorem next {word : α → List Terminal} (first : Follows s x (only word))
    (rest : ∀ a {s'}, Follows s' (f a) (target.behind (word a))) : Follows s (x >>= f) target :=
  first.bind fun a _ same => same ▸ rest a

/-- A step that takes a phrase of some kind. -/
theorem nextPhrase (first : Follows s x (anyOf phrase))
    (rest : ∀ a p {s'}, Follows s' (f a) (target.behind (phrase p))) :
    Follows s (x >>= f) target := by
  refine first.bind fun a taken known => ?_
  obtain ⟨p, rfl⟩ := known
  exact rest a p

/-- The last of several steps. -/
theorem last {word : α → List Terminal} (h : Follows s x (only word))
    (known : ∀ a, phrases a (word a)) : Follows s x phrases :=
  h.mono fun a _ same => same ▸ known a

theorem lastPhrase (h : Follows s x (anyOf phrase)) (known : ∀ a p, phrases a (phrase p)) :
    Follows s x phrases := by
  refine h.mono fun a taken isPhrase => ?_
  obtain ⟨p, rfl⟩ := isPhrase
  exact known a p

theorem pure (known : phrases a []) : Follows s (Pure.pure a) phrases where
  nonempty := ⟨a, [], known⟩
  whole run := by
    obtain ⟨rfl, rfl⟩ := runs_pure.mp run
    exact ⟨[], known, .nil _⟩
  begun run := by cases run

/-- What a step does next may depend on what the tokens show. -/
theorem look {γ : Type} {view : TokenStream → γ} {f : γ → Codegen β}
    (rest : Follows s (f (view s.tokens)) target) : Follows s (Codegen.look view >>= f) target where
  nonempty := rest.nonempty
  whole run := rest.whole run
  begun run := rest.begun run

/-! ### Failing -/

theorem throw {fault : Fault} (nonempty : ∃ a phrase, phrases a phrase)
    (shows : ∀ located, fault = .syntactic located → s.tokens.Shows located) :
    Follows s (MonadExcept.throw fault) phrases where
  nonempty := nonempty
  whole run := absurd run runs_throw
  begun run := by
    obtain ⟨a, phrase, known⟩ := nonempty
    cases run
    exact ⟨⟨a, [], phrase, known, .nil _⟩, shows _ rfl⟩

theorem failExpecting {expected : String} (nonempty : ∃ a phrase, phrases a phrase) :
    Follows s (Codegen.failExpecting expected) phrases := by
  refine .look (.throw nonempty fun located same expected' encountered cause => ?_)
  -- The fault says itself what was expected.
  rw [← same]
  cases same
  cases cause
  rfl

theorem failAt {place : Location} {cause : SyntacticFault}
    (noMismatch : ∀ expected encountered, cause ≠ .mismatch expected encountered)
    (nonempty : ∃ a phrase, phrases a phrase) :
    Follows s (Codegen.failAt place cause) phrases := by
  refine .throw nonempty fun located same expected encountered mismatch => ?_
  cases same
  exact absurd mismatch (noMismatch expected encountered)

/-! ### Steps that take tokens -/

theorem skip {terminal : Terminal} (ahead : s.tokens.next? = some terminal) :
    Follows s Codegen.skip (only fun _ => [terminal]) where
  nonempty := ⟨(), _, rfl⟩
  whole run := by
    obtain ⟨terminal', tokens, reads, rfl⟩ := runs_skip.mp run
    obtain rfl := Option.some.inj (ahead.symm.trans reads.next?_eq)
    exact ⟨_, rfl, reads⟩
  begun run := by
    rw [run_skip] at run
    split at run
    · cases run
    · rename_i tokens failed
      cases run
      rw [TokenStream.next?_eq_none.mpr (TokenReader.next_of_syntactic failed)] at ahead
      cases ahead

/-- Without a look-ahead of the given kind, nothing is taken. -/
theorem skipExpected {kind : TokenKind} {terminal : Terminal}
    (shows : ∀ {stream : TokenStream}, stream.kind? = some kind ↔ stream.next? = some terminal) :
    Follows s (discard (read (TokenReader.expect kind))) (only fun _ => [terminal]) := by
  rw [discard_expect_eq]
  refine .look ?_
  split
  · rename_i expected
    exact .skip (shows.mp (by simpa using expected))
  · exact .failExpecting ⟨(), _, rfl⟩

theorem skipSymbol (c : Char) :
    Follows s (Codegen.skipSymbol c) (only fun _ => [.symbol c]) :=
  .skipExpected TokenStream.kind?_eq_symbol

theorem skipKeyword (word : Keyword) :
    Follows s (Codegen.skipKeyword word) (only fun _ => [.keyword word]) :=
  .skipExpected TokenStream.kind?_eq_keyword

theorem takeName : Follows s Codegen.takeName (only fun name => [.identifier name]) := by
  rw [takeName_eq]
  refine .look (.look ?_)
  split
  · rename_i expected
    obtain ⟨name, next⟩ := TokenStream.kind?_eq_identifier.mp (by simpa using expected)
    obtain ⟨token, ahead, isName⟩ := Option.map_eq_some_iff.mp next
    obtain ⟨-, rfl⟩ := Token.terminal_eq_identifier.mp isName
    refine .next (.skip next) fun _ => .pure ?_
    simp [TokenStream.upcoming, ahead, Token.wording]
  · exact .failExpecting ⟨"", _, rfl⟩

/-- What a step does next may depend on whether it has found the next token. -/
theorem accept {kind : TokenKind} {terminal : Terminal} {f : Bool → Codegen β}
    (shows : ∀ {stream : TokenStream}, stream.kind? = some kind ↔ stream.next? = some terminal)
    (found : ∀ {s'}, Follows s' (f true) (target.behind [terminal]))
    (missing : ∀ {s'}, Follows s' (f false) target) :
    Follows s (read (TokenReader.accept kind) >>= f) target := by
  rw [accept_eq]
  have answer : Follows s (do
      if ← Codegen.look fun stream => stream.kind? == some kind then
        Codegen.skip
        return true
      else return false) fun found taken => taken = if found then [terminal] else [] := by
    refine .look ?_
    split
    · rename_i expected
      exact .next (.skip (shows.mp (by simpa using expected))) fun _ => .pure rfl
    · exact .pure rfl
  refine answer.next fun isFound => ?_
  cases isFound with
  | true => exact found
  | false => exact missing

theorem acceptSymbol {c : Char} {f : Bool → Codegen β}
    (found : ∀ {s'}, Follows s' (f true) (target.behind [.symbol c]))
    (missing : ∀ {s'}, Follows s' (f false) target) :
    Follows s (Codegen.acceptSymbol c >>= f) target :=
  .accept TokenStream.kind?_eq_symbol found missing

theorem acceptKeyword {word : Keyword} {f : Bool → Codegen β}
    (found : ∀ {s'}, Follows s' (f true) (target.behind [.keyword word]))
    (missing : ∀ {s'}, Follows s' (f false) target) :
    Follows s (Codegen.acceptKeyword word >>= f) target :=
  .accept TokenStream.kind?_eq_keyword found missing

/-! ### Repeated steps -/

theorem iterateAtMost {step : α → Codegen (Option α)}
    (round : ∀ a {s'}, Follows s' (step a) (rounds phrase)) (bound : Nat) :
    ∀ (a : α) {s : Session}, Follows s (Codegen.iterateAtMost step bound a)
      (anyOf fun ps : List τ => ps.flatMap phrase) := by
  induction bound with
  | zero =>
    intro a s
    exact .pure ⟨[], rfl⟩
  | succ bound ih =>
    intro a s
    refine (round a).bind fun answer taken known => ?_
    cases answer with
    | none =>
      obtain rfl : taken = [] := known
      exact .pure ⟨[], rfl⟩
    | some b =>
      obtain ⟨p, rfl⟩ : ∃ p, phrase p = taken := known
      exact (ih b).lastPhrase fun _ ps => ⟨p :: ps, List.flatMap_cons⟩

theorem iterate {step : α → Codegen (Option α)}
    (round : ∀ a {s'}, Follows s' (step a) (rounds phrase)) (a : α) :
    Follows s (Codegen.iterate step a) (anyOf fun ps : List τ => ps.flatMap phrase) :=
  .look (iterateAtMost round _ a)

theorem repeatWhile {step : Codegen Bool} (round : ∀ {s'}, Follows s' step (ifAny phrase)) :
    Follows s (Codegen.repeatWhile step) (anyOf fun ps : List τ => ps.flatMap phrase) := by
  refine .iterate (fun _ {s'} => round.bind fun found taken known => ?_) ()
  cases found with
  | true => exact .pure (by simpa [Phrases.behind, rounds, ifAny] using known)
  | false => exact .pure (by simpa [Phrases.behind, rounds, ifAny] using known)

end Follows

/-! ### Steps that leave the tokens alone -/

/-- A step leaves the tokens alone, and whatever its faults are about, it is not the look-ahead. -/
structure Idle (x : Codegen α) : Prop where
  tokens : ∀ s, (x.run.run s).2.tokens = s.tokens
  noMismatch : ∀ s located, (x.run.run s).1 = .error (.syntactic located) →
    ∀ expected encountered, located.cause ≠ .mismatch expected encountered

/-- An idle step takes nothing. -/
theorem Idle.follows [Inhabited α] (h : Idle x) : Follows s x (only fun _ => []) where
  nonempty := ⟨default, [], rfl⟩
  whole run := by
    have tokens := h.tokens s
    rw [show x.run.run s = _ from run] at tokens
    exact ⟨[], rfl, TokenStream.reads_nil.mpr tokens⟩
  begun run := by
    have tokens := h.tokens s
    have noMismatch := h.noMismatch s
    rw [run] at tokens noMismatch
    refine ⟨⟨default, [], [], rfl, TokenStream.reads_nil.mpr tokens⟩, ?_⟩
    intro expected encountered mismatch
    exact absurd mismatch (noMismatch _ rfl expected encountered)

/-- A step behind an idle one. -/
theorem Follows.idle [Inhabited α] (h : Idle x) (rest : ∀ a {s'}, Follows s' (f a) target) :
    Follows s (x >>= f) target :=
  h.follows.next rest

/-- An idle step at the end of a phrase. -/
theorem Follows.of_idle [Inhabited α] (h : Idle x) (known : ∀ a, phrases a []) :
    Follows s x phrases :=
  h.follows.last known

namespace Idle

theorem of_answers (answer : Session → α) (h : ∀ s, (x.run.run s).1 = .ok (answer s))
    (tokens : ∀ s, (x.run.run s).2.tokens = s.tokens) : Idle x where
  tokens := tokens
  noMismatch s located failed := by
    rw [h] at failed
    cases failed

theorem pure (a : α) : Idle (Pure.pure a) :=
  .of_answers (fun _ => a) (fun _ => rfl) fun _ => rfl

theorem bind (first : Idle x) (rest : ∀ a, Idle (f a)) : Idle (x >>= f) where
  tokens s := by
    have before := first.tokens s
    rw [run_bind]
    generalize x.run.run s = outcome at before
    rcases outcome with ⟨fault | a, middle⟩
    · exact before
    · exact ((rest a).tokens middle).trans before
  noMismatch s located failed := by
    have before := first.noMismatch s
    rw [run_bind] at failed
    generalize x.run.run s = outcome at before failed
    rcases outcome with ⟨fault | a, middle⟩
    · cases failed
      exact before _ rfl
    · exact (rest a).noMismatch middle located failed

theorem failAt {place : Location} {cause : SyntacticFault}
    (noMismatch : ∀ expected encountered, cause ≠ .mismatch expected encountered) :
    Idle (Codegen.failAt place cause : Codegen α) where
  tokens _ := rfl
  noMismatch _ _ failed := by
    cases failed
    exact noMismatch

theorem location : Idle Codegen.location :=
  .of_answers (·.tokens.location) (fun _ => rfl) fun _ => rfl

theorem report (event : Event) : Idle (Codegen.report event) :=
  .of_answers (fun _ => ()) (fun _ => rfl) fun _ => rfl

theorem freshLabel : Idle Codegen.freshLabel :=
  .of_answers (·.nextLabel) (fun _ => rfl) fun _ => rfl

theorem startSubroutine : Idle Codegen.startSubroutine :=
  .of_answers (fun _ => ()) (fun _ => rfl) fun _ => rfl

theorem lookup? (name : String) : Idle (Codegen.lookup? name) :=
  .of_answers (·.visible.lookup? name) (fun _ => rfl) fun _ => rfl

theorem declarations (kind : VariableKind) : Idle (Codegen.declarations kind) :=
  .of_answers (·.visible.count kind) (fun _ => rfl) fun _ => rfl

theorem emit (instruction : Instruction) : Idle (Codegen.emit instruction) where
  tokens _ := rfl
  noMismatch s located failed := by
    rw [run_emit] at failed
    generalize (s.output.write Instruction.text instruction).1 = result at failed
    cases result <;> cases failed

theorem declare (name type : String) (kind : VariableKind) (place : Location) :
    Idle (Codegen.declare name type kind place) where
  tokens s := by
    rw [run_declare]
    split <;> rfl
  noMismatch s located failed := by
    rw [run_declare] at failed
    split at failed <;> cases failed
    simp

theorem resolve (name : String) (place : Location) : Idle (Codegen.resolve name place) := by
  refine .bind (.lookup? name) fun found => ?_
  cases found with
  | some v => exact .pure v
  | none => exact .failAt (by simp)

theorem forM {γ : Type} {items : List γ} {f : γ → Codegen Unit} (each : ∀ c, Idle (f c)) :
    Idle (items.forM f) := by
  induction items with
  | nil => exact .pure _
  | cons c items ih => exact .bind (each c) fun _ => ih

end Idle

end Codegen

end JackCompiler
